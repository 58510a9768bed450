import RdfDataset.Proofs.Collection.Extract
import RdfDataset.Proofs.Dataset.Call

/-!
# Taking collections out

Extraction takes the arcs of all collections out of a dataset or nothing at all, and leaves no arc to `rdf:nil` behind.

* `Dataset.IsExtractedArc`: a quad leads from a cell of a collection that was extracted.
* `Dataset.extractLists_unchanged`: when nothing is taken out.
* `Dataset.Consistent.mem_quads_extractLists`: the arcs that are taken out; `Dataset.Consistent.extractLists_again`:
  nothing is left to be extracted.
* `Dataset.removal_calls`: both together, after any calls.
-/

namespace RdfDataset.Dataset

open Vocabulary.Rdf

section

variable [Arrangement] {d : Dataset}

/-- A quad leads from a cell of a collection that was extracted to its item or to the next cell. -/
def IsExtractedArc (d : Dataset) (extraction : Extraction) (q : Quad) : Prop :=
  ∃ graph cells, d.IsCollection graph cells ∧ (start cells, cells.map Prod.snd) ∈ extraction.lists ∧
    d.IsListArcOf cells q

/-! ### All or nothing -/

/-- Nothing is taken out when it is not asked for, when a fault was recorded and when extraction fails. -/
theorem extractLists_unchanged {options : ExtractOptions}
    (h : options.remove = false ∨ (∃ e, (d.extractLists options).1 = .error e) ∨
      ∃ extraction, (d.extractLists options).1 = .ok extraction ∧ extraction.faults ≠ []) :
    (d.extractLists options).2 = d := by
  unfold Dataset.extractLists at h ⊢
  dsimp only at h ⊢
  split at h
  · rfl
  · rfl
  · rename_i extraction arcs hgather
    have hkeep : (options.remove && extraction.faults.isEmpty) = false := by
      obtain hremove | ⟨e, he⟩ | ⟨found, hfound, hfaults⟩ := h
      · simp [hremove]
      · cases he
      · cases hfound
        simp [hfaults]
    simp [hkeep]

/-- What is gathered without a fault from the chains of some last arcs, whether faults would be left aside or not. -/
theorem gatherLists_eq_ok {lasts : List Quad} (hnocircle : ∀ last ∈ lasts, ∀ cell, d.chainOf last ≠ .circular cell)
    {ignoreErrors : Bool} {extraction : Extraction} {arcs : List Quad}
    (h : d.gatherLists ignoreErrors lasts ({}, []) = .ok (extraction, arcs)) (hfaults : extraction.faults = []) :
    (∀ last ∈ lasts, (d.chainOf last).fault? = none) ∧
      (extraction.lists = lasts.filterMap fun last => (d.chainOf last).list?) ∧
      arcs = lasts.flatMap fun last => (d.chainOf last).arcs := by
  have hignoring : d.gatherLists true lasts ({}, []) = .ok (extraction, arcs) := by
    cases ignoreErrors with
    | true => exact h
    | false =>
      have hstrict := gatherLists_strict hnocircle {} []
      cases hfault : lasts.filterMap fun last => (d.chainOf last).fault? with
      | nil =>
        rw [hfault] at hstrict
        exact hstrict.symm.trans h
      | cons fault faults =>
        rw [hfault] at hstrict
        cases hstrict.symm.trans h
  rw [gatherLists_ignoring hnocircle] at hignoring
  obtain ⟨rfl, rfl⟩ := Prod.mk.inj (Gathered.ok.inj hignoring)
  refine ⟨?_, rfl, rfl⟩
  simpa [List.filterMap_eq_nil_iff] using hfaults

/-! ### What is taken out -/

namespace Consistent

variable (hd : d.Consistent) (hnil : d.NilEnds)
include hd hnil

/-- The chain of each last arc is a collection when none of them has a fault. -/
private theorem exists_of_fault_eq_none {last : Quad} (hlast : d.IsLastArc last)
    (hfault : (d.chainOf last).fault? = none) :
    ∃ before item arcs, d.chainOf last = .list (start (before ++ [(last.subject, item)]))
        ((before ++ [(last.subject, item)]).map Prod.snd) arcs ∧
      d.IsCollection last.graph (before ++ [(last.subject, item)]) ∧
      ∀ q, q ∈ arcs ↔ d.IsListArcOf (before ++ [(last.subject, item)]) q := by
  cases hchain : d.chainOf last with
  | list head items arcs =>
    obtain ⟨before, item, hcollection, rfl, rfl, harcs⟩ := hd.exists_of_chainOf_eq_list hlast hchain
    exact ⟨before, item, arcs, rfl, hcollection, harcs⟩
  | malformed fault =>
    rw [hchain] at hfault
    cases hfault
  | circular cell => exact absurd hchain (hd.chainOf_ne_circular hnil hlast cell)

/-- The arcs that were gathered are those of the cells of the collections. -/
private theorem mem_arcs_iff {lasts : List Quad} (hlasts : ∀ last, last ∈ lasts ↔ d.IsLastArc last)
    (hfaults : ∀ last ∈ lasts, (d.chainOf last).fault? = none) {extraction : Extraction}
    (hlists : extraction.lists = lasts.filterMap fun last => (d.chainOf last).list?) {q : Quad} :
    (q ∈ lasts.flatMap fun last => (d.chainOf last).arcs) ↔ d.IsExtractedArc extraction q := by
  rw [List.mem_flatMap]
  constructor
  · rintro ⟨last, hlast, hq⟩
    obtain ⟨before, item, arcs, hchain, hcollection, harcs⟩ :=
      hd.exists_of_fault_eq_none hnil ((hlasts last).1 hlast) (hfaults last hlast)
    rw [hchain] at hq
    refine ⟨last.graph, _, hcollection, ?_, (harcs q).1 hq⟩
    rw [hlists, List.mem_filterMap]
    exact ⟨last, hlast, by rw [hchain, Chain.list?]⟩
  · rintro ⟨graph, cells, hcollection, -, hq⟩
    obtain ⟨before, node, item, rfl, hlast⟩ := hcollection.exists_last
    obtain ⟨before', item', arcs, hchain, hcollection', harcs⟩ :=
      hd.exists_of_fault_eq_none hnil hlast (hfaults _ ((hlasts _).2 hlast))
    -- the chain of the last arc leads to the head of this very collection
    have hlist := (hd.chainOf_eq_list_iff hnil hlast).2 ⟨before, item, hcollection, rfl, rfl⟩
    rw [hchain, Chain.list?] at hlist
    have hstart := (Prod.mk.inj (Option.some.inj hlist)).1
    have hcells := hcollection'.chained.unique hnil hcollection.chained hstart
    refine ⟨_, (hlasts _).2 hlast, ?_⟩
    rw [hchain, Chain.arcs, harcs, hcells]
    exact hq

variable {options : ExtractOptions} {extraction : Extraction} (hremove : options.remove = true)
  (hok : (d.extractLists options).1 = .ok extraction) (hfaults : extraction.faults = [])
include hremove hok hfaults

/-- When no fault is found, extraction takes out the arcs of the cells of all collections, and nothing else. -/
theorem mem_quads_extractLists :
    (d.extractLists options).2.Consistent ∧
      (∀ q, q ∈ (d.extractLists options).2.quads ↔ q ∈ d.quads ∧ ¬d.IsExtractedArc extraction q) ∧
      ∀ last, d.IsLastArc last → d.IsExtractedArc extraction last := by
  have hlasts : ∀ last, last ∈ d.matching { predicate := some restTerm, object := some nilTerm } ↔ d.IsLastArc last :=
    fun last => hd.mem_lastArcs
  unfold Dataset.extractLists at hok ⊢
  dsimp only at hok ⊢
  generalize d.matching { predicate := some restTerm, object := some nilTerm } = lasts at hlasts hok ⊢
  have hnocircle : ∀ last ∈ lasts, ∀ cell, d.chainOf last ≠ .circular cell :=
    fun last hlast => hd.chainOf_ne_circular hnil ((hlasts last).1 hlast)
  split at hok
  · cases hok
  · cases hok
  · rename_i found arcs hgather
    obtain rfl := Gathered.ok.inj hok
    obtain ⟨hnone, hlists, rfl⟩ := gatherLists_eq_ok hnocircle hgather hfaults
    have harcs := fun q => hd.mem_arcs_iff hnil hlasts hnone hlists (q := q)
    have hquads : ∀ q, d.IsExtractedArc found q → q ∈ d.quads := by
      rintro q ⟨_, _, -, -, hq⟩
      exact hq.mem
    have htold : ∀ q ∈ lasts.flatMap fun last => (d.chainOf last).arcs, q.DistinguishedBy d.terms :=
      fun q hq => hd.distinguishedBy_of_mem (hquads q ((harcs q).1 hq))
    obtain ⟨hconsistent, -, hrest, -⟩ := hd.eraseMany htold
    have htaken : (options.remove && found.faults.isEmpty) = true := by simp [hremove, hfaults]
    rw [if_pos htaken]
    refine ⟨hconsistent, fun q => ?_, fun last hlast => ?_⟩
    · rw [hrest, Finset.mem_sdiff, List.mem_toFinset, harcs]
    · obtain ⟨before, item, chainArcs, hchain, -, hmem⟩ :=
        hd.exists_of_fault_eq_none hnil hlast (hnone last ((hlasts last).2 hlast))
      rw [← harcs, List.mem_flatMap]
      refine ⟨last, (hlasts last).2 hlast, ?_⟩
      rw [hchain, Chain.arcs, hmem]
      exact ⟨hlast.1, by simp, .inr hlast.2.1⟩

/-- Behind an extraction that has taken collections out there is none left, and no fault. -/
theorem extractLists_again (options' : ExtractOptions) :
    (d.extractLists options).2.extractLists options' = (.ok {}, (d.extractLists options).2) := by
  obtain ⟨hconsistent, hquads, hlast⟩ := hd.mem_quads_extractLists hnil hremove hok hfaults
  generalize (d.extractLists options).2 = d' at hconsistent hquads ⊢
  -- every arc to the empty list was one from a last cell
  have hnone : d'.matching { predicate := some restTerm, object := some nilTerm } = [] := by
    rw [List.eq_nil_iff_forall_not_mem]
    intro last hmem
    obtain ⟨hmem, hrest, hobject⟩ := hconsistent.mem_lastArcs.1 hmem
    obtain ⟨hmem, hkept⟩ := (hquads last).1 hmem
    exact hkept (hlast last ⟨hmem, hrest, hobject⟩)
  unfold Dataset.extractLists
  rw [hnone]
  obtain ⟨remove, ignoreErrors⟩ := options'
  cases remove <;> rfl

end Consistent

/-- After any calls that leave nothing behind `rdf:nil`, extraction with any options is all or nothing.  The dataset
stays as it is, the remembered size included, when it fails, when a fault is recorded and when nothing is to be taken
out.  Otherwise exactly the arcs from the cells of the collections that it returns are taken out, and a further
extraction with any options returns nothing, without a fault, and changes nothing. -/
theorem removal_calls (settings : Settings) (calls : List Call) (options : ExtractOptions)
    (hnil : (calls.foldl Call.run { settings }).NilEnds) :
    let d := calls.foldl Call.run { settings }
    let d' := (d.extractLists options).2
    (options.remove = false ∨ (∃ e, (d.extractLists options).1 = .error e) ∨
        (∃ extraction, (d.extractLists options).1 = .ok extraction ∧ extraction.faults ≠ []) → d' = d) ∧
      ∀ extraction, options.remove = true → (d.extractLists options).1 = .ok extraction → extraction.faults = [] →
        (∀ q, q ∈ d'.quads ↔ q ∈ d.quads ∧ ¬d.IsExtractedArc extraction q) ∧
          ∀ options', d'.extractLists options' = (.ok {}, d') := by
  intro d d'
  have hd : d.Consistent := (sound_calls settings calls).consistent
  refine ⟨extractLists_unchanged, fun extraction hremove hok hfaults => ⟨?_, ?_⟩⟩
  · exact (hd.mem_quads_extractLists hnil hremove hok hfaults).2.1
  · exact hd.extractLists_again hnil hremove hok hfaults

end

/-- A list of one item is taken out, and what refers to it and a cell that leads nowhere are left. -/
theorem removal_calls_anchored :
    let quads : List Quad := [⟨.blank "s", .iri "a:p", .blank "l", .defaultGraph⟩,
      ⟨.blank "l", firstTerm, .literal (.plain "1"), .defaultGraph⟩, ⟨.blank "l", restTerm, nilTerm, .defaultGraph⟩,
      ⟨.blank "m", firstTerm, .literal (.plain "2"), .defaultGraph⟩]
    let d := [Call.update (.insertMany quads)].foldl Call.run {}
    let d' := (d.extractLists { remove := true }).2
    d.NilEnds ∧ (∃ extraction, (d.extractLists { remove := true }).1 = .ok extraction ∧ extraction.faults = []) ∧
      (∀ q, q ∈ d'.quads ↔ q = ⟨.blank "s", .iri "a:p", .blank "l", .defaultGraph⟩ ∨
        q = ⟨.blank "m", firstTerm, .literal (.plain "2"), .defaultGraph⟩) ∧
      d'.extractLists {} = (.ok {}, d') := by
  intro quads d d'
  have hblank : ∀ label ∈ ["s", "l", "m"], (Term.blank label).IsValid := by
    simp only [Term.isValid_blank]
    decide
  have hiri : (Term.iri "a:p").IsValid := Term.isValid_iri.2 (by decide)
  have hplain : ∀ value, (Term.literal (.plain value)).IsValid := .plain
  simp only [List.forall_mem_cons] at hblank
  have hvalid : ∀ q ∈ quads, q.IsValid := by
    simp only [quads, List.forall_mem_cons, Quad.isValid_iff]
    simp [hblank, hiri, Cell.isValid_listTerms, hplain, Term.IsValid.defaultGraph]
  have hquads : d.quads = quads.toFinset := quads_call_insertMany hvalid
  have hends : d.NilEnds := by
    rw [NilEnds, hquads]
    decide
  have hcollection : d.IsCollection .defaultGraph [(.blank "l", .literal (.plain "1"))] := by
    refine ⟨List.cons_ne_nil _ _, ⟨?_, ?_⟩, ⟨?_, ?_, ?_⟩, by simp, trivial⟩
    · rw [arcsTo, hquads]
      decide
    · rw [arcsFrom, arcsTo, hquads]
      decide
    · rw [arcsFrom, hquads]
      decide
    · rw [arcsFrom, hquads]
      decide
    · rw [arcsFrom, hquads]
      decide
  -- the only arc to the empty list is the last one of this collection
  have honly : ∀ last, d.IsLastArc last → d.EndsCollection last := by
    rintro last ⟨hmem, hrest, hobject⟩
    have hlast : last = ⟨.blank "l", restTerm, nilTerm, .defaultGraph⟩ := by
      rw [hquads] at hmem
      revert hmem hrest hobject
      revert last
      decide
    exact hlast ▸ ⟨[], _, hcollection⟩
  have hd : d.Valid := ((Valid.empty {}).insertMany hvalid).1
  obtain ⟨extraction, -, hexact, hstrict⟩ := hd.exists_isExtraction hends true
  have hnone : extraction.faults = [] := by
    obtain ⟨lasts, -, hlasts, hfaults⟩ := hexact.faults
    have hlasts : lasts = [] := by
      rw [List.eq_nil_iff_forall_not_mem]
      exact fun last hlast => ((hlasts last).1 hlast).2 (honly last ((hlasts last).1 hlast).1)
    rw [hlasts] at hfaults
    simpa using hfaults.symm
  rw [hnone] at hstrict
  obtain ⟨-, htaken⟩ := removal_calls {} [.update (.insertMany quads)] { remove := true } hends
  obtain ⟨hleft, hagain⟩ := htaken extraction rfl hstrict hnone
  have hlist : (start [(.blank "l", .literal (.plain "1"))], [.literal (.plain "1")]) ∈ extraction.lists :=
    (hexact.mem_lists _ _).2 ⟨_, _, hcollection, rfl, rfl⟩
  refine ⟨hends, ⟨extraction, hstrict, hnone⟩, fun q => ?_, hagain {}⟩
  rw [hleft, hquads]
  simp only [quads, List.mem_toFinset, List.mem_cons, List.not_mem_nil, or_false]
  constructor
  · rintro ⟨rfl | rfl | rfl | rfl, hkept⟩
    · exact .inl rfl
    · exact absurd ⟨_, _, hcollection, hlist, hcollection.chained.1.first_mem, by simp, .inl rfl⟩ hkept
    · exact absurd ⟨_, _, hcollection, hlist, hcollection.chained.1.rest_mem, by simp, .inr rfl⟩ hkept
    · exact .inr rfl
  · rintro (rfl | rfl)
    · refine ⟨.inl rfl, ?_⟩
      rintro ⟨graph, cells, -, -, harc⟩
      exact absurd harc.predicate (by decide)
    · refine ⟨.inr (.inr (.inr rfl)), ?_⟩
      rintro ⟨graph, cells, hcells, -, harc⟩
      -- the other cell leads nowhere
      obtain ⟨⟨node, item⟩, hcell, rfl⟩ := List.mem_map.1 harc.subject
      obtain ⟨_, after, -, hiscell⟩ := hcells.chained.exists_of_mem hcell
      have hmem := hiscell.rest_mem
      rw [hquads] at hmem
      have hnowhere : ∀ q ∈ quads.toFinset, q.predicate = restTerm → q.subject ≠ .blank "m" := by decide
      exact hnowhere _ hmem rfl rfl

end RdfDataset.Dataset
